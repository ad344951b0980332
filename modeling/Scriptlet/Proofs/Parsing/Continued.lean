/-
# Parsing goes on as from the start

Rounds of a parse that come to the tokens of another list leave no trace but the
statements and the errors that they have yielded.  From there the parse goes on as it
does on that list alone, for neither the tokens behind the cursor nor the errors
before it matter to a rule, and no statement or function is left open between two
rounds (`Program.parse_of_passes_ofTokens`).

Tokens that are accepted make such rounds, whatever comes behind them: they are a list
of declarations, and each of these is read to its end and no further.  Only an `else`
could make the last one longer.  So a program in front of other tokens changes nothing
in what is reported of them (`Program.parse_append`).
-/
import Scriptlet.Proofs.Parsing.Accepts
import Scriptlet.Proofs.Parsing.Progress

namespace Scriptlet

open Grammar

/-! ## Token lists one behind the other -/

namespace Grammar

variable {tokens : List Token} (real : ∀ token ∈ tokens, token.kind ≠ .eof)

include real

theorem readable_append (more : List Token) : readable (tokens ++ more) = tokens ++ readable more :=
  List.takeWhile_append_of_pos fun token member => decide_eq_true (real token member)

theorem readable_of_real : readable tokens = tokens := by
  have alone := readable_append real []
  rwa [List.append_nil, show readable [] = [] from rfl, List.append_nil] at alone

end Grammar

theorem Cursor.endLineOf_append {tokens more : List Token}
    (real : ∀ token ∈ tokens, token.kind ≠ .eof) (some : more ≠ []) :
    endLineOf (tokens ++ more) = endLineOf more := by
  have none : tokens.find? (·.kind = .eof) = none :=
    List.find?_eq_none.2 fun token member => by simp [real token member]
  have last : (tokens ++ more).getLast? = more.getLast? := by
    rw [List.getLast?_append, List.getLast?_eq_some_getLast some, Option.some_or]
  rw [endLineOf, endLineOf, List.find?_append, none, Option.none_or, last]

theorem Cursor.ofTokens_behind {c : Cursor} {tokens : List Token} (rest : c.rest = readable tokens)
    (line : c.endLine = endLineOf tokens) : (ofTokens tokens).behind c.errors c.size = c := by
  rw [ofTokens, behind, List.append_nil, ← line]
  exact congrArg c.facing rest.symm

theorem Stops.readable {wanted : List Token.Kind} {tokens : List Token} (h : Stops wanted tokens) :
    Stops wanted (readable tokens) := by
  intro token head
  cases tokens with
  | nil => cases head
  | cons first tail =>
      rw [Grammar.readable, List.takeWhile_cons] at head
      split at head
      · exact h token head
      · cases head

/-! ## Rounds that come to another list -/

namespace Program

open Parse

theorem parse_of_readable_nil {tokens : List Token} (h : readable tokens = []) :
    parse tokens = .ok [] :=
  parse_of_passes (.done _) h

/-- Where rounds have come to what is read of another list, the parse goes on as it does
on that list alone. -/
theorem parse_of_passes_ofTokens {tokens more : List Token} {first : Program} {c : Cursor}
    (h : Passes none (declarationWithin maxNesting 0) (.ofTokens tokens) first c)
    (rest : c.rest = readable more)
    (line : readable more ≠ [] → Cursor.endLineOf tokens = Cursor.endLineOf more) :
    parse tokens = match parse more with
      | .ok program => if c.errors = [] then .ok (first ++ program) else .error c.errors
      | .error errors => .error (c.errors ++ errors) := by
  by_cases none : readable more = []
  · rw [parse_of_readable_nil none, parse_of_passes h (rest.trans none)]
    dsimp only
    rw [List.append_nil]
  · obtain ⟨program, d, passes, ended⟩ := exists_passes more
    have few : (readable more).length ≤ c.size := by
      have bounded := h.leads.bounded (Nat.le_refl _)
      rwa [rest] at bounded
    have here := Cursor.ofTokens_behind rest (h.leads.endLine.trans (line none))
    have later := passes.behind (.declarationWithin maxNesting 0) (Nat.le_refl _) c.errors few
    rw [here] at later
    rw [parse_of_passes (h.trans later) ended, parse_of_passes passes ended]
    rw [Cursor.behind_errors]
    by_cases clean : d.errors = []
    · rw [clean, List.append_nil, if_pos rfl]
    · rw [if_neg clean, if_neg fun all => clean (List.append_eq_nil_iff.1 all).2]

end Program

/-! ## Rounds of a program -/

namespace Parse

/-- A list of declarations makes rounds up to whatever follows it, unless that is an
`else`. -/
theorem Passes.ofDeclarations {levels : Nat} {rest : List Token} (follow : Stops [.kwElse] rest)
    {declarations : List (List Token × Stmt)}
    (each : ∀ d ∈ declarations, DerivesStmt levels false .declaration d.1 d.2) :
    ∀ c : Cursor, c.rest.length ≤ c.size → c.rest = declarations.flatMap (·.1) ++ rest →
      Passes none (declarationWithin levels 0) c (declarations.map (·.2)) (c.facing rest) := by
  induction declarations with
  | nil =>
      rintro c - hrest
      have here : c.facing rest = c := Cursor.facing_of_rest hrest
      rw [here]
      exact .done c
  | cons d declarations ih =>
      obtain ⟨first, later⟩ := List.forall_mem_cons.1 each
      intro c hc hrest
      rw [List.flatMap_cons, List.append_assoc] at hrest
      have read : DeclarationReading levels false c.rest d.2
          (declarations.flatMap (·.1) ++ rest) := by
        rw [hrest]
        exact .ofDerives first (stops_declarations follow later)
      have run := ((Reads.declaration (Reads.expression levels)
        (Reads.statement levels 0)).run_iff hc).2 ⟨_, rfl, read⟩
      have leads : c.Leads (c.facing (declarations.flatMap (·.1) ++ rest)) :=
        .skip c (hrest ▸ List.suffix_append _ _)
      have one : Round (declarationWithin levels 0) c (some d.2)
          (c.facing (declarations.flatMap (·.1) ++ rest)) := by
        refine ⟨?_, leads, read.progress, nofun⟩
        rw [recovering, declarationWithin, run.1]
      have going : ¬ Ended none c := by
        intro ended
        have fewer := read.progress
        rw [ended_none_iff.1 ended] at fewer
        cases fewer
      exact .round going one (ih later _ (leads.bounded hc) rfl)

end Parse

/-- A program in front changes nothing in what is reported of the tokens behind it: they
yield their statements after those of the program, or else their errors and no
others. -/
theorem Program.parse_append {tokens more : List Token} {program : Program}
    (real : ∀ token ∈ tokens, token.kind ≠ .eof) (accepted : parse tokens = .ok program)
    (follow : Stops [.kwElse] more) :
    parse (tokens ++ more) = match parse more with
      | .ok program' => .ok (program ++ program')
      | .error errors => .error errors := by
  have spells : DerivesWithin maxNesting (readable tokens) program :=
    (parse_iff tokens program).1 accepted
  rw [readable_of_real real] at spells
  cases spells with
  | @intro declarations each =>
      have passes := Parse.Passes.ofDeclarations follow.readable each
        (.ofTokens (declarations.flatMap (·.1) ++ more)) (Nat.le_refl _) (readable_append real more)
      have line : readable more ≠ [] →
          Cursor.endLineOf (declarations.flatMap (·.1) ++ more) = Cursor.endLineOf more := by
        intro some
        refine Cursor.endLineOf_append real ?_
        rintro rfl
        exact some rfl
      have goesOn := parse_of_passes_ofTokens passes rfl line
      rwa [Cursor.facing_errors, Cursor.ofTokens] at goesOn

/-- Recovery behind a program that ends with a semicolon, from an error at once and from
one at the end. -/
theorem Program.parse_append_unopened :
    let x : Token := ⟨.identifier, "x", none, 1⟩
    let semicolon : Token := ⟨.semicolon, ";", none, 1⟩
    let more : List Token := [⟨.rightParen, ")", none, 2⟩, x, semicolon, x, .endOfFile 3]
    parse [x, semicolon] = .ok [.expression (.identifier x)] ∧
      parse ([x, semicolon] ++ more) = .error [⟨2, .atLexeme ")", .expressionMissing⟩,
        ⟨3, .atEnd, .semicolonAfterExpressionMissing⟩] := by
  intro x semicolon more
  have accepted : parse [x, semicolon] = .ok [.expression (.identifier x)] := rfl
  have follow : Stops [.kwElse] more := (stops_cons ..).2 (by decide)
  exact ⟨accepted, (parse_append (by decide) accepted follow).trans rfl⟩

end Scriptlet
