/-
# Parsing accepts exactly the grammar

`Program.parse` yields a program if and only if the tokens spell it, so what it
rejects is spelled by no derivation at all, and no token list spells two
programs.  The rules are shown to read the grammar in the modules before this
one; here they meet the cursor that a parse starts from.
-/
import Scriptlet.Proofs.Parsing.Statement

namespace Scriptlet

open Grammar

namespace Parse

/-- A parse with any number of levels to open: what `program` is with
`maxNesting` of them. -/
def programWithin (levels : Nat) : Parse Program :=
  many none (declaration (expression levels) (statement levels 0))

theorem run_programWithin_iff (levels : Nat) (tokens : List Token) (program : Program) :
    (∃ c, programWithin levels (Cursor.ofTokens tokens) = .ok program c ∧ c.errors = []) ↔
      DerivesWithin levels (readable tokens) program := by
  have start : (Cursor.ofTokens tokens).rest.length ≤ (Cursor.ofTokens tokens).size :=
    Nat.le_refl _
  constructor
  · rintro ⟨c, run, clean⟩
    obtain ⟨rest, rfl, derived, rfl⟩ :=
      ((Reads.declarations levels).run_iff start).1 ⟨run, clean⟩
    exact derived
  · intro derived
    exact ⟨_, ((Reads.declarations levels).run_iff start).2 ⟨[], rfl, derived, rfl⟩⟩

end Parse

namespace Grammar

/-- No token list is derived as two programs: parsing it would yield both. -/
theorem DerivesWithin.unique {levels : Nat} {tokens : List Token} {program program' : Program}
    (h : DerivesWithin levels tokens program) (h' : DerivesWithin levels tokens program') :
    program = program' := by
  have start : (⟨tokens, 1, tokens.length, []⟩ : Cursor).rest.length ≤ tokens.length :=
    Nat.le_refl _
  obtain ⟨run, -⟩ := ((Parse.Reads.declarations levels).run_iff start).2 ⟨[], rfl, h, rfl⟩
  obtain ⟨run', -⟩ := ((Parse.Reads.declarations levels).run_iff start).2 ⟨[], rfl, h', rfl⟩
  rw [run] at run'
  cases run'
  rfl

end Grammar

/-- What a parse yields, and when. -/
theorem Program.parse_iff (tokens : List Token) (program : Program) :
    Program.parse tokens = .ok program ↔ Spells tokens program := by
  show Program.parse tokens = .ok program ↔ DerivesWithin maxNesting (readable tokens) program
  rw [← Parse.run_programWithin_iff]
  have whole : Parse.program = Parse.programWithin maxNesting := rfl
  unfold Program.parse
  rw [whole]
  cases run : Parse.programWithin maxNesting (Cursor.ofTokens tokens) with
  | error e c => simp
  | ok statements c =>
      dsimp only
      by_cases clean : c.errors = []
      · rw [if_pos clean]
        constructor
        · intro same
          cases same
          exact ⟨c, rfl, clean⟩
        · rintro ⟨_, same, -⟩
          cases same
          rfl
      · rw [if_neg clean]
        constructor
        · intro same
          cases same
        · rintro ⟨_, same, clean'⟩
          cases same
          exact absurd clean' clean

/-- Parsing yields a program exactly if the grammar derives the tokens that are
read as that program, and it derives them as no other. -/
theorem Program.parse_iff_spells (tokens : List Token) (program : Program) :
    (Program.parse tokens = .ok program ↔ Spells tokens program) ∧
      (Spells tokens program → ∀ other, Spells tokens other → other = program) :=
  ⟨parse_iff tokens program, fun spells _ spells' => spells'.unique spells⟩

end Scriptlet
