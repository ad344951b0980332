/-
# A text further down

Layout and comments in front of a text are nothing to the scanner but newlines to
count, to the parser and to a run they are nothing at all.  So the text comes to
the same end behind them: the same errors of the scanner, the same errors of the
parser in the same order, the same run with the same output and the same error,
or the same bindings, where every line is further down by the newlines in front
(`execute_behind`).

This is put together from one statement for each stage, which says that the stage
carries lines along and does not look at them: `words_gap` and `faults_gap` for
the scanner, `Program.parse_relined` and `moves_interpretAll`.
-/
import Scriptlet.Proofs.Parsing.Moved
import Scriptlet.Proofs.Run.Joined
import Scriptlet.Proofs.Scanning.Lossless

namespace Scriptlet

/-! ## Scanning -/

namespace Token

variable {gap : List Char} {source : String}

theorem toList_behind (gap : List Char) (source : String) :
    (String.ofList gap ++ source).toList = gap ++ source.toList := by
  rw [String.toList_append, String.toList_ofList]

/-- Behind a gap a text has the same tokens or the same errors, further down. -/
theorem scan_behind (h : Gap gap source.toList) : scan (String.ofList gap ++ source) =
    match scan source with
    | .ok tokens => .ok (tokens.map (Token.relined (· + gap.count '\n')))
    | .error errors => .error (errors.map (ScanError.relined (· + gap.count '\n'))) := by
  have tokens : words 1 (gap ++ source.toList) ++ [endOfFile (lastLine (gap ++ source.toList))] =
      (words 1 source.toList ++ [endOfFile (lastLine source.toList)]).map
        (Token.relined (· + gap.count '\n')) := by
    have line : lastLine (gap ++ source.toList) = lastLine source.toList + gap.count '\n' := by
      rw [lastLine, lastLine, List.count_append, Nat.add_comm (gap.count '\n'), ← Nat.add_assoc]
    rw [words_gap h, words_add, line, List.map_append]
    rfl
  have errors : faults 1 (gap ++ source.toList) =
      (faults 1 source.toList).map (ScanError.relined (· + gap.count '\n')) := by
    rw [faults_gap h, faults_add]
  rw [scan_eq_ite, scan_eq_ite, toList_behind, tokens, errors]
  simp only [List.map_eq_nil_iff]
  split <;> rfl

theorem scan_ne_nil {tokens : List Token} (h : scan source = .ok tokens) : tokens ≠ [] := by
  rw [(scan_iff.1 h).2]
  exact List.append_ne_nil_of_right_ne_nil _ (List.cons_ne_nil _ _)

end Token

/-! ## Programs and runs -/

section

variable {gap : List Char} {source : String}

/-- Behind a gap a text spells the same program or is rejected for the same
reasons, further down. -/
theorem Program.ofSource_behind (h : Token.Gap gap source.toList) :
    ofSource (String.ofList gap ++ source) =
      match ofSource source with
      | .ok program => .ok (program.relined (· + gap.count '\n'))
      | .error failure => .error (failure.relined (· + gap.count '\n')) := by
  rw [ofSource, ofSource, Token.scan_behind h]
  cases scanned : Token.scan source with
  | error errors => rfl
  | ok tokens =>
      dsimp only
      rw [parse_relined _ (Token.scan_ne_nil scanned)]
      cases parse tokens <;> rfl

/-- Behind a gap a text is executed in the same way, on a machine that may hold
functions of its own, whose lines are moved along. -/
theorem execute_behind (h : Token.Gap gap source.toList) (fuel : Nat) (m : Machine) :
    execute fuel (String.ofList gap ++ source) (m.relined (· + gap.count '\n')) =
      Session.relined (· + gap.count '\n') (execute fuel source m) := by
  rw [execute, execute, Program.ofSource_behind h]
  cases Program.ofSource source with
  | error failure => rfl
  | ok program =>
      exact Session.ofRun_relined (moves_interpretAll _ (some maxFrames) fuel program) m

end

/-! ## Newlines -/

theorem Token.gap_newlines (k : Nat) (rest : List Char) : Gap (List.replicate k '\n') rest := by
  induction k with
  | zero => exact .none
  | succ k ih => exact .blank (by decide) ih

/-- A fresh machine has native functions only, and so no lines. -/
theorem Machine.initial_relined (φ : Nat → Nat) (clock : Clock) (sink : Sink) :
    Machine.relined φ { initial clock with sink := sink } =
      { initial clock with sink := sink } := by
  have natives : Scopes.relined φ (initial clock).scopes = (initial clock).scopes := by
    simp only [Scopes.relined, Machine.initial, List.map_toArray]
    rfl
  rw [relined, natives]

/-- With newlines in front a text is executed by a fresh machine as it is without
them, whatever the output has room for and whatever the clock shows, if it shows
the same to both.  The text fails in the same way or leaves the same machine, and
all that differs are the lines, each of which is further down by the number of the
newlines. -/
theorem execute_lowered (source : String) (k fuel : Nat) (clock : Clock) (sink : Sink) :
    execute fuel (String.ofList (List.replicate k '\n') ++ source)
        { Machine.initial clock with sink := sink } =
      Session.relined (· + k)
        (execute fuel source { Machine.initial clock with sink := sink }) := by
  have run := execute_behind (Token.gap_newlines k source.toList) fuel
    { Machine.initial clock with sink := sink }
  rw [List.count_replicate_self, Machine.initial_relined] at run
  exact run

end Scriptlet
