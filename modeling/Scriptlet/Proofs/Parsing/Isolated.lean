/-
# An error does not outlive its statement

A statement without braces ends at its semicolon even if it is wrong.  What is
compared here are two parses with the same tokens up to that semicolon, where one has
nothing behind it and the other may have anything (`Cursor.Before`).  No rule for an
expression reads a semicolon, so the two runs do the same as long as it is ahead.  If
the statement is read to its end they stop right behind it.  If not, they fail at the
same token with the same error, and recovery skips to the semicolon, because no token
before it starts a statement.  Either way the parse goes on with what is behind as it
does on that alone (`Program.parse_isolated`).
-/
import Scriptlet.Proofs.Parsing.Continued

namespace Scriptlet

open Grammar

/-! ## Simple statements -/

/-- The kinds that are neither braces nor the end of a statement or of the tokens, and
that start no statement. -/
def Token.Kind.plain (kind : Token.Kind) : Bool :=
  !kind.startsStatement && kind ∉ [.semicolon, .leftBrace, .rightBrace, .eof]

/-- The keywords that may start a simple statement. -/
def Token.Kind.simpleKeywords : List Token.Kind := [.kwVar, .kwPrint, .kwReturn]

/-- What is left of a simple statement: plain tokens, behind one that may be its
keyword. -/
inductive Simple : List Token → Prop
  | nil : Simple []
  | cons {token : Token} {tail : List Token} :
      token.kind.plain ∨ token.kind ∈ Token.Kind.simpleKeywords → (∀ t ∈ tail, t.kind.plain) →
      Simple (token :: tail)

namespace Simple

theorem plain {tokens : List Token} (h : ∀ t ∈ tokens, t.kind.plain) : Simple tokens := by
  cases tokens with
  | nil => exact .nil
  | cons token tail =>
      obtain ⟨here, later⟩ := List.forall_mem_cons.1 h
      exact .cons (.inl here) later

theorem led {lead : Option Token} {inner : List Token}
    (keyword : ∀ t ∈ lead, t.kind ∈ Token.Kind.simpleKeywords) (h : ∀ t ∈ inner, t.kind.plain) :
    Simple (lead.toList ++ inner) := by
  cases lead with
  | none => exact plain h
  | some token => exact .cons (.inr (keyword token rfl)) h

/-- The kinds of token that a simple statement does not hold before its end. -/
def strangers : List Token.Kind :=
  [.semicolon, .leftBrace, .rightBrace, .eof, .kwClass, .kwFun, .kwFor, .kwIf, .kwWhile]

variable {token : Token} {rest : List Token}

theorem tail (h : Simple (token :: rest)) : Simple rest := by
  cases h with
  | cons _ later => exact plain later

theorem head (h : Simple (token :: rest)) : token.kind ∉ strangers := by
  have known : ∀ kind : Token.Kind,
      kind.plain ∨ kind ∈ Token.Kind.simpleKeywords → kind ∉ strangers := by
    intro kind
    cases kind <;> decide
  cases h with
  | cons here _ => exact known _ here

theorem real {tokens : List Token} (h : Simple tokens) : ∀ t ∈ tokens, t.kind ≠ .eof := by
  induction tokens with
  | nil => exact List.forall_mem_nil _
  | cons token tail ih =>
      refine List.forall_mem_cons.2 ⟨?_, ih h.tail⟩
      intro ends
      exact h.head (ends ▸ by decide)

end Simple

/-! ## Recovery stops behind the semicolon -/

section

variable {semicolon : Token} (hs : semicolon.kind = .semicolon) (more : List Token)

include hs

theorem skipToStatement_plain {tokens : List Token} (h : ∀ t ∈ tokens, t.kind.plain)
    (last : Token.Kind) (open' : last ≠ .semicolon) :
    skipToStatement last (tokens ++ semicolon :: more) = more := by
  induction tokens generalizing last with
  | nil =>
      have goes : (decide (last = .semicolon) || semicolon.kind.startsStatement) = false := by
        rw [decide_eq_false open', hs]
        rfl
      rw [List.nil_append, skipToStatement, goes, if_neg Bool.false_ne_true]
      cases more with
      | nil => rfl
      | cons token rest =>
          rw [skipToStatement, hs]
          rfl
  | cons token tail ih =>
      obtain ⟨here, later⟩ := List.forall_mem_cons.1 h
      have within : token.kind.startsStatement = false ∧ token.kind ≠ .semicolon := by
        have known : ∀ kind : Token.Kind, kind.plain →
            kind.startsStatement = false ∧ kind ≠ .semicolon := by
          intro kind
          cases kind <;> decide
        exact known _ here
      have goes : (decide (last = .semicolon) || token.kind.startsStatement) = false := by
        rw [decide_eq_false open', within.1]
        rfl
      rw [List.cons_append, skipToStatement, goes, if_neg Bool.false_ne_true]
      exact ih later token.kind within.2

theorem synchronize_simple {tokens : List Token} (h : Simple tokens) :
    synchronize (tokens ++ semicolon :: more) = more := by
  cases h with
  | nil =>
      rw [List.nil_append, synchronize, hs]
      cases more <;> rfl
  | @cons token tail here later =>
      have open' : token.kind ≠ .semicolon := by
        intro ends
        exact (Simple.cons here later).head (ends ▸ by decide)
      exact skipToStatement_plain hs more later token.kind open'

end

/-! ## Two runs up to the semicolon -/

/-- The tokens before both cursors are the same simple statement up to its semicolon,
with nothing behind it for the first and `more` for the second. -/
structure Cursor.Before (semicolon : Token) (more : List Token) (c c' : Cursor) : Prop where
  tokens : ∃ left, Simple left ∧ c.rest = left ++ [semicolon] ∧ c'.rest = left ++ semicolon :: more
  errors : c'.errors = c.errors
  bounded : c.rest.length ≤ c.size ∧ c'.rest.length ≤ c'.size

/-- Both cursors are behind the semicolon. -/
structure Cursor.After (more : List Token) (c c' : Cursor) : Prop where
  rest : c.rest = []
  rest' : c'.rest = more
  errors : c'.errors = c.errors

theorem Cursor.Lockstep.before {semicolon : Token} (hs : semicolon.kind = .semicolon)
    (more : List Token) : Lockstep (· ≠ .semicolon) (Before semicolon more) where
  head h := by
    obtain ⟨left, -, hrest, hrest'⟩ := h.tokens
    rw [hrest, hrest', List.head?_append, List.head?_append]
    rfl
  endLine h none := by
    obtain ⟨left, -, hrest, -⟩ := h.tokens
    rw [hrest] at none
    exact absurd none (List.append_ne_nil_of_right_ne_nil left (List.cons_ne_nil _ _))
  read := by
    intro c c' token tail tail' h hrest hrest' hk
    obtain ⟨left, simple, same, same'⟩ := h.tokens
    rw [hrest] at same
    rw [hrest'] at same'
    have few := h.bounded
    rw [hrest, hrest'] at few
    cases left with
    | nil =>
        cases same
        exact absurd hs hk
    | cons first left =>
        obtain ⟨rfl, rfl⟩ := List.cons.inj same
        obtain ⟨-, rfl⟩ := List.cons.inj same'
        exact ⟨⟨left, simple.tail, rfl, rfl⟩, h.errors,
          Nat.le_of_succ_le few.1, Nat.le_of_succ_le few.2⟩
  report e h := ⟨h.tokens, by rw [h.errors], h.bounded⟩
  bounded h := h.bounded

namespace Parse

variable {α β : Type}

/-- The rule reads a simple statement to behind its semicolon, or fails on the way. -/
def Closes (semicolon : Token) (more : List Token) (rule : Parse α) : Prop :=
  ∀ c c', Cursor.Before semicolon more c c' →
    Coincide (Cursor.After more) (Cursor.Before semicolon more) (rule c) (rule c')

namespace Closes

variable {semicolon : Token} {more : List Token} (hs : semicolon.kind = .semicolon)

include hs

theorem bind {rule : Parse α} {advances : Bool} (h : Nearsighted (· ≠ .semicolon) advances rule)
    {next : α → Parse β} (h' : ∀ a, Closes semicolon more (next a)) :
    Closes semicolon more (rule >>= next) := by
  intro c c' before
  refine (h _ (.before hs more) c c' before).bind fun a d d' ⟨there, _⟩ => ?_
  exact h' a d d' there

theorem fail (cause : SyntaxError.Cause) : Closes semicolon more (Parse.fail cause : Parse α) :=
  fun _ _ before => ⟨by rw [(Cursor.Lockstep.before hs more).current before], before⟩

/-- What depends on whether a token was accepted.  It is one of the statement. -/
theorem accept? {wanted : List Token.Kind} (inside : .semicolon ∉ wanted)
    {next : Option Token → Parse α}
    (h : ∀ token, token.kind ∉ Simple.strangers → Closes semicolon more (next (some token)))
    (h' : Closes semicolon more (next none)) :
    Closes semicolon more (Parse.accept? wanted >>= next) := by
  intro c c' before
  have known : ∀ kind ∈ wanted, kind ≠ .semicolon := by
    rintro kind member rfl
    exact inside member
  refine .accept? (.before hs more) before known (fun token tail tail' hrest _ hk there => ?_)
    (h' c c' before)
  refine h token ?_ _ _ there
  obtain ⟨left, simple, same, -⟩ := before.tokens
  rw [hrest] at same
  cases left with
  | nil =>
      cases same
      exact absurd hs (known _ hk)
  | cons first left =>
      cases same
      exact simple.head

/-- The semicolon, and what is made then. -/
theorem closed (cause : SyntaxError.Cause) (a : α) :
    Closes semicolon more (do let _ ← Parse.expect .semicolon cause; Pure.pure a) := by
  intro c c' before
  obtain ⟨left, simple, hrest, hrest'⟩ := before.tokens
  cases left with
  | nil =>
      have taken : ∀ {c : Cursor} {tail : List Token}, c.rest = semicolon :: tail →
          (do let _ ← Parse.expect .semicolon cause; Pure.pure a : Parse α) c =
            .ok a (c.facing tail) := by
        intro c tail hrest
        rw [bind_apply, Parse.expect, bind_apply, Parse.accept?, hrest]
        dsimp only
        rw [if_pos (List.mem_singleton.2 hs)]
        rfl
      rw [taken hrest, taken hrest']
      exact ⟨rfl, rfl, rfl, before.errors⟩
  | cons first left =>
      have missed : ∀ {c : Cursor} {tail : List Token}, c.rest = first :: tail →
          (do let _ ← Parse.expect .semicolon cause; Pure.pure a : Parse α) c =
            Parse.fail cause c := by
        intro c tail hrest
        have other : first.kind ∉ [Token.Kind.semicolon] := by
          intro ends
          exact simple.head (List.mem_singleton.1 ends ▸ by decide)
        rw [bind_apply, Parse.expect, bind_apply, Parse.accept?, hrest]
        dsimp only
        rw [if_neg other]
        rfl
      rw [missed hrest, missed hrest']
      exact fail hs cause c c' before

/-! ### Statements -/

theorem varDeclaration {expression : Parse Expr}
    (h : Nearsighted (· ≠ .semicolon) true expression) :
    Closes semicolon more (varDeclaration expression) :=
  bind hs (.expect (by decide) _) fun _ => accept? hs (by decide)
    (fun _ _ => bind hs h fun _ => closed hs _ _)
    (bind hs (.pure _) fun _ => closed hs _ _)

theorem printStatement {expression : Parse Expr}
    (h : Nearsighted (· ≠ .semicolon) true expression) :
    Closes semicolon more (printStatement expression) :=
  bind hs h fun _ => closed hs _ _

theorem expressionStatement {expression : Parse Expr}
    (h : Nearsighted (· ≠ .semicolon) true expression) :
    Closes semicolon more (expressionStatement expression) :=
  bind hs h fun _ => closed hs _ _

theorem returnStatement {expression : Parse Expr}
    (h : Nearsighted (· ≠ .semicolon) true expression) (functions : Nat) (keyword : Token) :
    Closes semicolon more (returnStatement expression functions keyword) := by
  have rest : Closes semicolon more (do
      let value ← if ← Parse.check .semicolon then Pure.pure none else some <$> expression
      let _ ← Parse.expect .semicolon .semicolonAfterReturnMissing
      Pure.pure (.returns keyword value) : Parse Stmt) := by
    refine bind hs (.check .semicolon) fun ended => ?_
    split
    · exact bind hs (.pure none) fun _ => closed hs _ _
    · exact bind hs (h.map some) fun _ => closed hs _ _
  unfold Parse.returnStatement
  split
  · exact bind hs (.record _ keyword) fun _ => rest
  · exact rest

theorem statement : ∀ levels functions,
    Closes semicolon more (Parse.statement levels functions)
  | 0, _ => fail hs _
  | levels + 1, functions => by
      have h : Nearsighted (· ≠ .semicolon) true (expression levels) :=
        .expression (fun _ => id) levels
      refine accept? hs (by decide) (fun token inside => ?_) (expressionStatement hs h)
      dsimp only
      split
      case h_1 => exact printStatement hs h
      case h_7 => exact returnStatement hs h functions token
      case h_8 =>
        exact fun _ _ before => ⟨rfl, before⟩
      all_goals
        rename_i hk
        exact absurd (hk ▸ by decide) inside

/-- A declaration is read to behind the semicolon, or fails on the way. -/
theorem declarationWithin (levels functions : Nat) :
    Closes semicolon more (declarationWithin levels functions) :=
  accept? hs (by decide) (fun _ _ => varDeclaration hs (.expression (fun _ => id) levels))
    (statement hs levels functions)

/-- With recovery, it comes to behind the semicolon in any case. -/
theorem recovering {rule : Parse α} (h : Closes semicolon more rule) {c c' : Cursor}
    (before : c.Before semicolon more c') : Coincide (Cursor.After more) (fun _ _ => False)
      (recovering rule c) (recovering rule c') := by
  have both := h c c' before
  unfold Parse.recovering
  cases run : rule c with
  | ok a d =>
      rw [run] at both
      obtain ⟨d', run', after⟩ := both.of_ok
      rw [run']
      exact ⟨rfl, after⟩
  | error e d =>
      rw [run] at both
      obtain ⟨d', run', before⟩ := both.of_error
      obtain ⟨left, simple, hrest, hrest'⟩ := before.tokens
      rw [run']
      refine ⟨rfl, ?_, ?_, ?_⟩
      · dsimp only
        rw [hrest, synchronize_simple hs [] simple]
      · dsimp only
        rw [hrest', synchronize_simple hs more simple]
      · dsimp only
        rw [before.errors]

end Closes

/-- The rounds that a simple statement and its semicolon make before `more`. -/
theorem Passes.ofBefore {semicolon : Token}
    (hs : semicolon.kind = .semicolon) (levels functions : Nat) {more : List Token}
    {c c' : Cursor} (before : c.Before semicolon more c') :
    ∃ statements d d', Cursor.After more d d' ∧
      Passes none (declarationWithin levels functions) c statements d ∧
      Passes none (declarationWithin levels functions) c' statements d' := by
  have round : ∀ {c : Cursor} {left after : List Token}, c.rest = left ++ semicolon :: after →
      c.rest.length ≤ c.size → ¬ Ended none c ∧
        ∃ first d, Round (declarationWithin levels functions) c first d := by
    intro c left after hrest hc
    have some : c.rest ≠ [] := by
      rw [hrest]
      exact List.append_ne_nil_of_right_ne_nil left (List.cons_ne_nil _ _)
    exact ⟨fun ended => some (ended_none_iff.1 ended),
      exists_round (.declarationWithin levels functions) hc some⟩
  obtain ⟨left, -, hrest, hrest'⟩ := before.tokens
  obtain ⟨going, first, d, one⟩ := round hrest before.bounded.1
  obtain ⟨going', first', d', one'⟩ := round hrest' before.bounded.2
  have both := (Closes.declarationWithin hs levels functions).recovering hs before
  rw [one.run, one'.run] at both
  obtain ⟨rfl, after⟩ := both
  exact ⟨_, d, d', after, .round going one (.done d), .round going' one' (.done d')⟩

end Parse

/-- An error in a simple statement neither hides nor disturbs what is reported behind its
semicolon: its errors come first, then those of the tokens behind it as they are reported
of these alone.  If there are none of either, the statements are put together. -/
theorem Program.parse_isolated {lead : Option Token} {inner : List Token} {semicolon : Token}
    (keyword : ∀ token ∈ lead, token.kind ∈ Token.Kind.simpleKeywords)
    (plain : ∀ token ∈ inner, token.kind.plain) (hs : semicolon.kind = .semicolon)
    (more : List Token) :
    parse (lead.toList ++ inner ++ semicolon :: more) =
      match parse (lead.toList ++ inner ++ [semicolon]), parse more with
      | .ok program, .ok program' => .ok (program ++ program')
      | .ok _, .error errors => .error errors
      | .error errors, .ok _ => .error errors
      | .error errors, .error errors' => .error (errors ++ errors') := by
  have simple : Simple (lead.toList ++ inner) := .led keyword plain
  generalize lead.toList ++ inner = left at simple ⊢
  have real : ∀ token ∈ left ++ [semicolon], token.kind ≠ .eof := by
    refine List.forall_mem_append.2 ⟨simple.real, List.forall_mem_singleton.2 ?_⟩
    rw [hs]
    decide
  have joined : left ++ semicolon :: more = (left ++ [semicolon]) ++ more := by
    rw [List.append_assoc, List.singleton_append]
  have before : (Cursor.ofTokens (left ++ [semicolon])).Before semicolon (readable more)
      (Cursor.ofTokens (left ++ semicolon :: more)) := by
    refine ⟨⟨left, simple, readable_of_real real, ?_⟩, rfl, Nat.le_refl _, Nat.le_refl _⟩
    show readable _ = _
    rw [joined, readable_append real, List.append_assoc, List.singleton_append]
  have line : readable more ≠ [] →
      Cursor.endLineOf (left ++ semicolon :: more) = Cursor.endLineOf more := by
    intro some
    rw [joined]
    refine Cursor.endLineOf_append real ?_
    rintro rfl
    exact some rfl
  obtain ⟨statements, d, d', after, passes, passes'⟩ :=
    Parse.Passes.ofBefore hs maxNesting 0 before
  rw [parse_of_passes_ofTokens passes' after.rest' line, parse_of_passes passes after.rest,
    after.errors]
  by_cases clean : d.errors = []
  · rw [if_pos clean]
    cases parse more with
    | ok program => exact if_pos clean
    | error errors =>
        rw [clean]
        rfl
  · rw [if_neg clean]
    cases parse more with
    | ok program => exact if_neg clean
    | error errors => rfl

/-- An error on the way to a semicolon, and one behind it. -/
theorem Program.parse_isolated_print :
    let semicolon : Token := ⟨.semicolon, ";", none, 1⟩
    let print : Token := ⟨.kwPrint, "print", none, 1⟩
    let inner : List Token := [⟨.leftParen, "(", none, 1⟩, ⟨.kwElse, "else", none, 1⟩]
    let more : List Token := [⟨.rightBrace, "\x7d", none, 2⟩, .endOfFile 3]
    parse (print :: inner ++ [semicolon]) =
        .error [⟨1, .atLexeme "else", .expressionMissing⟩] ∧
      parse more = .error [⟨2, .atLexeme "\x7d", .expressionMissing⟩] ∧
      parse (print :: inner ++ semicolon :: more) = .error
        [⟨1, .atLexeme "else", .expressionMissing⟩, ⟨2, .atLexeme "\x7d", .expressionMissing⟩] := by
  intro semicolon print inner more
  have both := @parse_isolated (some print) inner semicolon (by decide) (by decide) rfl more
  exact ⟨rfl, rfl, both.trans rfl⟩

end Scriptlet
