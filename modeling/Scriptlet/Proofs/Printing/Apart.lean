/-
# What is written is scanned as the words of the tree

The text of an expression or of a statement is scanned without an error, and what
comes out is the words of the tree in order and the end of the text.  So no two
neighbours are written as one token, none is cut in two, and none begins a
comment.  The tree need not be one that parsing makes: any expression may be an
operand, a callee or an argument, and any statement a branch or a body.

What it takes is that prefix operators stay apart from their operands.  A space
is written between two prefix operators, but only if the second is the operand
itself and not the first thing in it.  The operators that the grammar has, `!`
and `-`, need no more than that (`Expr.Writable.printable`).  With another one in
that place two neighbours can come together: a `/` before an operand that begins
with `/` is a comment.
-/
import Scriptlet.Proofs.Printing.Shape
import Scriptlet.Proofs.Printing.Spelling

namespace Scriptlet

open Piece (broken_nil)
open Token (endOfFile unlined)

/-- The text is scanned without an error as the words, which the end of the text
follows. -/
def Token.ScansAs (text : String) (words : List Token) : Prop :=
  ∃ scanned, scan text = .ok scanned ∧ scanned.map unlined = words ++ [endOfFile 0]

/-- The written form of an expression and that of a statement are scanned as the
words of the tree, whatever the tree, if the names and operators in it have the
spelling of their kind, its literals have a spelling, and its prefix operators
stay apart from their operands.  They do so in every tree with names for names
and `!` and `-` for prefix operators. -/
theorem written_scans :
    (∀ e : Expr, (e.Printable Token.Apart → Token.ScansAs e.written e.words) ∧
        (e.Writable → e.Printable Token.Apart)) ∧
      ∀ s : Stmt, (s.Printable Token.Apart → Token.ScansAs s.written s.words) ∧
        (s.Writable → s.Printable Token.Apart) := by
  refine ⟨fun e => ⟨fun printable => ?_, Expr.Writable.printable⟩,
    fun s => ⟨fun printable => ?_, Stmt.Writable.printable⟩⟩
  · exact printable.spells.scan broken_nil
  · exact printable.spells.scan trivial

theorem written_scans_unparsed :
    let a : Token := ⟨.identifier, "a", none, 1⟩
    let b : Token := ⟨.identifier, "b", none, 2⟩
    let e : Expr := .unary ⟨.bang, "!", none, 1⟩
      (.binary (.unary ⟨.minus, "-", none, 1⟩ (.identifier a)) ⟨.star, "*", none, 1⟩
        (.identifier b))
    let s : Stmt := .whileLoop (.identifier a)
      (.function b [a] [.returns ⟨.eof, "", none, 0⟩ (some (.literal (.string "it's")))])
    (e.Printable Token.Apart ∧ Token.ScansAs e.written e.words) ∧
      s.Printable Token.Apart ∧ Token.ScansAs s.written s.words := by
  intro a b e s
  have named : a.Spelled :=
    Token.Genuine.spelled ⟨"a", _, rfl, _, List.mem_cons_self, rfl⟩ (by decide)
  have named' : b.Spelled :=
    Token.Genuine.spelled ⟨"b", _, rfl, _, List.mem_cons_self, rfl⟩ (by decide)
  have sign : ∀ {kind line}, kind ∈ Token.Kind.signs →
      Token.Spelled ⟨kind, kind.spelling, none, line⟩ := fun member => ⟨_, .sign member⟩
  have expression : e.Printable Token.Apart :=
    .unary (sign (by decide)) (by decide)
      (.binary (.unary (sign (by decide)) (by decide) (.identifier named)) (sign (by decide))
        (.identifier named'))
  have quotes : (Literal.string "it's").Writable := fun double => absurd double (by decide)
  have statement : s.Printable Token.Apart := by
    refine .whileLoop (.identifier named) (.function named' ?_ ?_)
    · exact List.forall_mem_singleton.2 named
    · refine List.forall_mem_singleton.2 (.returns ?_)
      rintro _ ⟨⟩
      exact .literal quotes
  exact ⟨⟨expression, (written_scans.1 e).1 expression⟩, statement,
    (written_scans.2 s).1 statement⟩

/-- Prefix operators need not stay apart from their operands by themselves: a
`/` before a sum that begins with `/` is written `//a + b`, which is a comment. -/
theorem slashes_come_together :
    let a : Token := ⟨.identifier, "a", none, 1⟩
    let b : Token := ⟨.identifier, "b", none, 1⟩
    let slash : Token := ⟨.slash, "/", none, 1⟩
    let e : Expr := .unary slash
      (.binary (.unary slash (.identifier a)) ⟨.plus, "+", none, 1⟩ (.identifier b))
    e.Printable (fun _ _ => True) ∧ e.numbers = [] ∧ e.written = "//a + b" ∧
      Token.scan e.written = .ok [endOfFile 1] ∧ ¬ Token.ScansAs e.written e.words := by
  intro a b slash e
  have named : a.Spelled :=
    Token.Genuine.spelled ⟨"a", _, rfl, _, List.mem_cons_self, rfl⟩ (by decide)
  have named' : b.Spelled :=
    Token.Genuine.spelled ⟨"b", _, rfl, _, List.mem_cons_self, rfl⟩ (by decide)
  have sign : ∀ {kind}, kind ∈ Token.Kind.signs →
      Token.Spelled ⟨kind, kind.spelling, none, 1⟩ := fun member => ⟨_, .sign member⟩
  have printable : e.Printable (fun _ _ => True) :=
    .unary (sign (by decide)) trivial
      (.binary (.unary (sign (by decide)) trivial (.identifier named)) (sign (by decide))
        (.identifier named'))
  have text : e.written = "//a + b" := rfl
  have comment : Token.scan e.written = .ok [endOfFile 1] := by
    rw [text]
    rfl
  refine ⟨printable, rfl, text, comment, ?_⟩
  rintro ⟨scanned, scans, same⟩
  rw [comment] at scans
  cases scans
  cases same

end Scriptlet
