/-
# Parsing undoes printing

A program in the shape of the grammar is written as a text that is read as that
program again, up to lines.  The three steps are in the modules before this one:
the text is scanned as the tokens of the program, the program is derived from
its tokens, and parsing accepts exactly what is derived.
-/
import Scriptlet.Proofs.Parsing.Accepts
import Scriptlet.Proofs.Parsing.Lines
import Scriptlet.Proofs.Printing.Shape
import Scriptlet.Proofs.Printing.Spelling

namespace Scriptlet

open Grammar
open Token (Alike endOfFile)

namespace Program

theorem Writable.scan_readable {program : Program} (h : program.Writable) :
    ∃ scanned, Token.scan program.written = .ok scanned ∧
      Alike (readable scanned) program.tokens := by
  obtain ⟨scanned, scans, same⟩ := h.scan
  obtain ⟨line, ends⟩ := Token.readable_scan scans
  refine ⟨scanned, scans, ?_⟩
  rw [ends, List.map_append] at same
  exact List.append_cancel_right (show _ ++ [endOfFile 0] = _ ++ [endOfFile 0] from same)

theorem Writable.spelled {program : Program} (writable : program.Writable)
    (fits : FitsProgram program) (finite : ∀ x ∈ program.numbers, x.isFinite = true)
    (shallow : program.depth ≤ maxNesting) :
    ∃ tokens program', Token.scan program.written = .ok tokens ∧ Spells tokens program' ∧
      program'.unlined = program.unlined := by
  obtain ⟨tokens, scans, alike⟩ := writable.scan_readable
  obtain ⟨program', derived, same⟩ := (fits.derives writable finite shallow).carry alike
  exact ⟨tokens, program', scans, derived, same⟩

/-- A program that has the shape of the grammar, in which every token is one
that scanning makes, every number is finite with a clear sign and no string
holds both quotes, is parsed from its written form, up to lines. -/
theorem parse_written (program : Program) (fits : FitsProgram program)
    (writable : program.Writable) (finite : ∀ x ∈ program.numbers, x.isFinite = true)
    (shallow : program.depth ≤ maxNesting) :
    ∃ tokens program', Token.scan program.written = .ok tokens ∧ parse tokens = .ok program' ∧
      program'.unlined = program.unlined := by
  obtain ⟨tokens, program', scans, spells, same⟩ := writable.spelled fits finite shallow
  exact ⟨tokens, program', scans, (parse_iff tokens program').2 spells, same⟩

/-- Two prefix operators and a string with a quote in it, `var a = - -"it's";`. -/
theorem parse_written_prefixed :
    let name : Token := ⟨.identifier, "a", none, 1⟩
    let minus : Token := ⟨.minus, "-", none, 1⟩
    let program : Program :=
      [.var name (.unary minus (.unary minus (.literal (.string "it's"))))]
    program.depth ≤ maxNesting ∧
      ∃ tokens program', Token.scan program.written = .ok tokens ∧ parse tokens = .ok program' ∧
        program'.unlined = program.unlined := by
  intro name minus program
  have named : name.Is .identifier := ⟨⟨"a", _, rfl, _, List.mem_cons_self, rfl⟩, rfl⟩
  have negates : minus.Genuine := ⟨"-", _, rfl, _, List.mem_cons_self, rfl⟩
  have member : minus.kind ∈ [Token.Kind.bang, .minus] := by decide
  have fits : FitsProgram program := by
    intro s here
    rw [List.mem_singleton.1 here]
    exact .var (.expression (.unassigned (.operand (.operand (.operand (.operand (.operand
      (.operand (.prefixed member (.prefixed member (.unprefixed (.uncalled .literal))))))))))))
  have writable : program.Writable := by
    intro s here
    rw [List.mem_singleton.1 here]
    have quotes : (Literal.string "it's").Writable := by
      intro double
      exact absurd double (by decide)
    exact .var named (.unary negates member (.unary negates member (.literal quotes)))
  have finite : ∀ x ∈ program.numbers, x.isFinite = true := by
    intro x none
    cases none
  have shallow : program.depth ≤ maxNesting := by decide
  exact ⟨shallow, parse_written program fits writable finite shallow⟩

end Program

end Scriptlet
