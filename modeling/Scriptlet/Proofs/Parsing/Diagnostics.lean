/-
# Diagnostics line by line

The message of a source that is rejected shows all its diagnostics, one after
another with a newline between each two.  A diagnostic begins with its line and
takes a line of the message for itself, unless there is a newline in it.

There is none in its wording, and a character that starts nothing is not a
newline.  What is left is the lexeme that a syntax error quotes.  It is that of a
token of the source (`Program.parse_proper`), and of all lexemes only string
literals may have newlines in them (`Token.Lexeme.newline`).  So a message has as
many lines as there are diagnostics, and one more for each newline in a literal
that is quoted (`Failure.lines_of_message`).
-/
import Scriptlet.Session
import Scriptlet.Proofs.Parsing.Causes
import Scriptlet.Proofs.Scanning.Lexeme

namespace Scriptlet

/-! ## Lines of a text -/

/-- What stands between the newlines of a text. -/
def linesOf (text : String) : List String := (text.toList.splitOn '\n').map String.ofList

theorem length_linesOf (text : String) :
    (linesOf text).length = text.toList.count '\n' + 1 := by
  rw [linesOf, List.length_map]
  induction text.toList with
  | nil => rfl
  | cons c rest ih =>
      unfold List.splitOn at ih ⊢
      rw [List.splitOnP_cons_eq_if_modifyHead, List.count_cons]
      split
      · rw [List.length_cons, ih]
      · rw [List.length_modifyHead, ih, Nat.add_zero]

theorem linesOf_line {text : String} (single : '\n' ∉ text.toList) : linesOf text = [text] := by
  rw [linesOf, List.splitOn_eq_singleton single, List.map_singleton, String.ofList_toList]

theorem linesOf_intercalate {texts : List String} (some : texts ≠ []) :
    linesOf ("\n".intercalate texts) = texts.flatMap linesOf := by
  induction texts with
  | nil => exact absurd rfl some
  | cons text texts ih =>
      cases texts with
      | nil => rw [String.intercalate_singleton, List.flatMap_singleton]
      | cons next texts =>
          have apart : (text ++ "\n" ++ "\n".intercalate (next :: texts)).toList =
              text.toList ++ '\n' :: ("\n".intercalate (next :: texts)).toList := by
            rw [String.toList_append, String.toList_append, List.append_assoc]
            rfl
          rw [String.intercalate_cons_cons, List.flatMap_cons, ← ih (List.cons_ne_nil _ _),
            linesOf, apart, List.splitOn_append_cons_self, List.map_append]
          rfl

/-! ## Where newlines can be -/

theorem not_mem_newline_toString (n : Nat) : '\n' ∉ (toString n).toList := by
  intro member
  have digits : (toString n).toList = Nat.toDigits 10 n := Nat.toList_repr
  rw [digits] at member
  exact absurd (Nat.isDigit_of_mem_toDigits (by decide) (by decide) member) (by decide)

/-- Of all lexemes only a string literal has newlines. -/
theorem Token.Lexeme.newline {kind : Kind} {chars : List Char} {literal : Option Literal}
    (h : Lexeme kind chars literal) (member : '\n' ∈ chars) : kind = .string := by
  have signs : ∀ kind ∈ Kind.signs, '\n' ∉ kind.spelling.toList := by decide
  have words : ∀ entry ∈ Kind.reserved, '\n' ∉ entry.1.toList := by decide
  have digit : '\n'.isDigit = false := by decide
  cases h with
  | sign sign => exact absurd member (signs _ sign)
  | reserved word => exact absurd member (words _ word)
  | name letter word =>
      rcases List.mem_cons.1 member with rfl | inside
      · exact absurd letter (by decide)
      · exact absurd (word _ inside) (by decide)
  | whole _ digits => exact absurd (digits _ member) (by rw [digit]; decide)
  | fractional _ _ digits =>
      have inside := digits '\n'
      rw [digit] at inside
      simp_all
  | string => rfl

/-- A character that starts nothing is not a newline. -/
theorem Token.not_newline_of_scan {source : String} {errors : List ScanError} {c : Char}
    {line : Nat} (scans : scan source = .error errors)
    (member : .unexpectedCharacter c line ∈ errors) : c ≠ '\n' := by
  rintro rfl
  have found : .unexpectedCharacter '\n' line ∈ faults 1 source.toList := by
    rw [scan_eq_ite] at scans
    split at scans
    · cases scans
    · cases scans
      exact member
  obtain ⟨⟨p, _⟩, listed, made⟩ := List.mem_filterMap.1 found
  obtain ⟨c, rest, rfl⟩ := Piece.mem_cutFrom (Piece.mem_withLines listed)
  obtain ⟨tail, chars⟩ := Piece.first_chars c rest
  unfold errorOfPiece? at made
  dsimp only at made
  rw [chars] at made
  cases shape : (Piece.first c rest).shape with
  | stray =>
      rw [shape] at made
      cases made
      cases shape
  | _ =>
      rw [shape] at made
      cases made

/-! ## Diagnostics -/

/-- What a diagnostic of the given line begins with. -/
def lineLabel (line : Nat) : String := "[line " ++ toString line ++ "]"

theorem count_lineLabel (line : Nat) : (lineLabel line).toList.count '\n' = 0 := by
  have digits := List.count_eq_zero.2 (not_mem_newline_toString line)
  rw [lineLabel, String.toList_append, String.toList_append, List.count_append,
    List.count_append, digits]
  rfl

theorem ScanError.message_unterminated (line : Nat) :
    (unterminatedString line).message = lineLabel line ++ " Error: Unterminated string." := by
  have apart : "] Error: Unterminated string." = "]" ++ " Error: Unterminated string." := rfl
  show "[line " ++ toString line ++ "] Error: Unterminated string." = _
  rw [apart, ← String.append_assoc, lineLabel]

theorem ScanError.message_unexpected (c : Char) (line : Nat) :
    (unexpectedCharacter c line).message =
      lineLabel line ++ (" Error: Unexpected character '" ++ (String.singleton c ++ "'.")) := by
  have apart : "] Error: Unexpected character '" = "]" ++ " Error: Unexpected character '" := rfl
  show "[line " ++ toString line ++ "] Error: Unexpected character '" ++ String.singleton c ++
    "'." = _
  rw [apart, lineLabel]
  simp only [String.append_assoc]

/-- A message that is about no newline has none. -/
theorem ScanError.count_message {e : ScanError}
    (other : ∀ c line, e = .unexpectedCharacter c line → c ≠ '\n') :
    e.message.toList.count '\n' = 0 := by
  cases e with
  | unterminatedString line =>
      rw [message_unterminated, String.toList_append, List.count_append, count_lineLabel]
      rfl
  | unexpectedCharacter c line =>
      have quoted : (String.singleton c).toList.count '\n' = 0 := by
        rw [String.toList_singleton, List.count_singleton,
          if_neg (by simpa using other c line rfl)]
      rw [message_unexpected]
      simp only [String.toList_append, List.count_append, count_lineLabel, quoted]
      rfl

theorem ScanError.label_prefix (e : ScanError) :
    (lineLabel e.line).toList <+: e.message.toList := by
  cases e with
  | unterminatedString line =>
      rw [message_unterminated, String.toList_append]
      exact List.prefix_append _ _
  | unexpectedCharacter c line =>
      rw [message_unexpected, String.toList_append]
      exact List.prefix_append _ _

namespace SyntaxError

/-- The newlines in what the error quotes. -/
def Place.newlines (place : Place) : Nat := place.text.toList.count '\n'

theorem message_eq (e : SyntaxError) :
    e.message = lineLabel e.line ++ (" Error " ++ (e.place.text ++ (": " ++ e.cause.message))) := by
  have apart : "] Error " = "]" ++ " Error " := rfl
  show "[line " ++ toString e.line ++ "] Error " ++ e.place.text ++ ": " ++ e.cause.message = _
  rw [apart, lineLabel]
  simp only [String.append_assoc]

theorem count_message (e : SyntaxError) : e.message.toList.count '\n' = e.place.newlines := by
  have wording : e.cause.message.toList.count '\n' = 0 := by cases e.cause <;> decide +kernel
  have error : " Error ".toList.count '\n' = 0 := by decide
  have colon : ": ".toList.count '\n' = 0 := by decide
  rw [message_eq]
  simp only [String.toList_append, List.count_append, count_lineLabel, wording, error, colon,
    Nat.zero_add, Nat.add_zero, Place.newlines]

theorem label_prefix (e : SyntaxError) : (lineLabel e.line).toList <+: e.message.toList := by
  rw [message_eq, String.toList_append]
  exact List.prefix_append _ _

/-- What has newlines is quoted from a string literal. -/
theorem Proper.string_of_newlines {tokens : List Token} {e : SyntaxError} (h : e.Proper tokens)
    (genuine : ∀ t ∈ tokens, t.Genuine) (some : e.place.newlines ≠ 0) :
    ∃ t ∈ tokens, t.kind = .string ∧ e = .atToken e.cause t := by
  obtain ⟨-, t, member, same⟩ := h
  refine ⟨t, member, ?_, same⟩
  have place : e.place = if t.kind = .eof then .atEnd else .atLexeme t.lexeme :=
    congrArg SyntaxError.place same
  by_cases ends : t.kind = .eof
  · rw [place, if_pos ends] at some
    exact absurd (by decide) some
  · rw [place, if_neg ends] at some
    refine ((genuine t member).lexeme ends).newline ?_
    by_contra free
    have quoted : t.lexeme.toList.count '\n' = 0 := List.count_eq_zero.2 free
    refine some ?_
    rw [Place.newlines, Place.text, String.toList_append, String.toList_append,
      List.count_append, List.count_append, quoted]
    rfl

end SyntaxError

/-! ## The message of a rejection -/

theorem Token.ne_nil_of_scan {source : String} {errors : List ScanError}
    (scans : scan source = .error errors) : errors ≠ [] := by
  rw [scan_eq_ite] at scans
  split at scans
  · cases scans
  · cases scans
    assumption

theorem Program.ne_nil_of_parse {tokens : List Token} {errors : List SyntaxError}
    (fails : parse tokens = .error errors) : errors ≠ [] := by
  unfold parse at fails
  split at fails
  · split at fails
    · cases fails
    · cases fails
      assumption
  · cases fails
    exact List.append_ne_nil_of_right_ne_nil _ (List.cons_ne_nil _ _)

/-- A source is rejected by the scanner, or else by the parser. -/
theorem Program.rejected_cases {source : String} {failure : Failure}
    (rejected : ofSource source = .error failure) :
    (∃ errors, Token.scan source = .error errors ∧ failure = .scan errors) ∨
      ∃ tokens errors, Token.scan source = .ok tokens ∧ parse tokens = .error errors ∧
        failure = .parse errors := by
  unfold ofSource at rejected
  split at rejected
  case h_1 errors scans =>
      cases rejected
      exact .inl ⟨errors, scans, rfl⟩
  case h_2 tokens scans =>
      split at rejected
      case h_1 errors parses =>
          cases rejected
          exact .inr ⟨tokens, errors, scans, parses, rfl⟩
      case h_2 => cases rejected

namespace Failure

/-- What a source is rejected for: each diagnostic with the line that it is about. -/
def diagnostics : Failure → List (Nat × String)
  | scan errors => errors.map fun e => (e.line, e.message)
  | parse errors => errors.map fun e => (e.line, e.message)
  | runtime _ => []

/-- The syntax errors of the failure. -/
def syntaxErrors : Failure → List SyntaxError
  | parse errors => errors
  | scan _ | runtime _ => []

/-- The message has a line for every diagnostic and no other, and each says first which
line of the source it is about. -/
def OnePerLine (failure : Failure) : Prop :=
  linesOf failure.message = failure.diagnostics.map (·.2) ∧
    ∀ d ∈ failure.diagnostics, (lineLabel d.1).toList <+: d.2.toList

/-- The newlines in what the failure quotes. -/
def newlines (failure : Failure) : Nat :=
  (failure.syntaxErrors.map (·.place.newlines)).sum

/-- A rejection has diagnostics, and of the characters in them those that may be
newlines are in what the syntax errors quote. -/
theorem diagnostics_of_rejected {source : String} {failure : Failure}
    (rejected : Program.ofSource source = .error failure) :
    failure.message = "\n".intercalate (failure.diagnostics.map (·.2)) ∧
      failure.diagnostics ≠ [] ∧
      (∀ d ∈ failure.diagnostics, (lineLabel d.1).toList <+: d.2.toList) ∧
      (failure.diagnostics.map (·.2.toList.count '\n')).sum = failure.newlines := by
  obtain ⟨errors, scans, rfl⟩ | ⟨tokens, errors, -, parses, rfl⟩ :=
    Program.rejected_cases rejected
  · refine ⟨?_, ?_, ?_, ?_⟩
    · rw [message, diagnostics, List.map_map]
      rfl
    · exact fun none => Token.ne_nil_of_scan scans (List.map_eq_nil_iff.1 none)
    · intro d listed
      obtain ⟨e, -, rfl⟩ := List.mem_map.1 listed
      exact e.label_prefix
    · rw [diagnostics, List.map_map, newlines, syntaxErrors, List.map_nil, List.sum_nil]
      refine List.sum_eq_zero fun n listed => ?_
      obtain ⟨e, member, rfl⟩ := List.mem_map.1 listed
      have free : e.message.toList.count '\n' = 0 := ScanError.count_message fun c line same =>
        Token.not_newline_of_scan scans (same ▸ member)
      exact free
  · refine ⟨?_, ?_, ?_, ?_⟩
    · rw [message, diagnostics, List.map_map]
      rfl
    · exact fun none => Program.ne_nil_of_parse parses (List.map_eq_nil_iff.1 none)
    · intro d listed
      obtain ⟨e, -, rfl⟩ := List.mem_map.1 listed
      exact e.label_prefix
    · have counts : ∀ e ∈ errors, ((fun d : Nat × String => d.2.toList.count '\n') ∘
          fun e : SyntaxError => (e.line, e.message)) e = e.place.newlines :=
        fun e _ => e.count_message
      rw [diagnostics, List.map_map, newlines, syntaxErrors, List.map_congr_left counts]

/-- What a failure quotes with newlines is a string literal of the source. -/
theorem string_of_newlines {source : String} {failure : Failure}
    (rejected : Program.ofSource source = .error failure) {e : SyntaxError}
    (member : e ∈ failure.syntaxErrors) (some : e.place.newlines ≠ 0) :
    ∃ tokens, Token.scan source = .ok tokens ∧
      ∃ t ∈ tokens, t.kind = .string ∧ e = .atToken e.cause t := by
  obtain ⟨errors, -, rfl⟩ | ⟨tokens, errors, scans, parses, rfl⟩ :=
    Program.rejected_cases rejected
  · cases member
  · have genuine : ∀ t ∈ tokens, t.Genuine :=
      fun t listed => ⟨source, tokens, scans, t, listed, rfl⟩
    exact ⟨tokens, scans,
      (Program.parse_proper scans parses e member).string_of_newlines genuine some⟩

/-- The message of a rejection shows the diagnostics one below the other, each of which
begins with its line, and takes a line for each of them and one more for each newline in
what they quote.  So every diagnostic has one line of its own exactly if no newline is
quoted; and only string literals of the source are quoted with newlines. -/
theorem lines_of_message {source : String} {failure : Failure}
    (rejected : Program.ofSource source = .error failure) :
    failure.diagnostics ≠ [] ∧
    (∀ d ∈ failure.diagnostics, (lineLabel d.1).toList <+: d.2.toList) ∧
    linesOf failure.message = failure.diagnostics.flatMap (linesOf ·.2) ∧
    (linesOf failure.message).length = failure.diagnostics.length + failure.newlines ∧
    (failure.OnePerLine ↔ failure.newlines = 0) ∧
    ∀ e ∈ failure.syntaxErrors, e.place.newlines ≠ 0 →
      ∃ tokens, Token.scan source = .ok tokens ∧
        ∃ t ∈ tokens, t.kind = .string ∧ e = .atToken e.cause t := by
  obtain ⟨joined, some, labels, counts⟩ := diagnostics_of_rejected rejected
  have lines : linesOf failure.message = failure.diagnostics.flatMap (linesOf ·.2) := by
    rw [joined, linesOf_intercalate (by simpa using some), List.flatMap_map]
  have length : (linesOf failure.message).length =
      failure.diagnostics.length + failure.newlines := by
    rw [lines, List.length_flatMap, ← counts]
    simp only [length_linesOf]
    rw [List.sum_map_add, List.map_const', List.sum_replicate, smul_eq_mul, Nat.mul_one,
      Nat.add_comm]
  refine ⟨some, labels, lines, length, ⟨fun apart => ?_, fun none => ⟨?_, labels⟩⟩,
    fun e member => string_of_newlines rejected member⟩
  · have same := congrArg List.length apart.1
    rw [length, List.length_map] at same
    omega
  · rw [none] at counts
    have single : ∀ d ∈ failure.diagnostics, linesOf d.2 = [d.2] := by
      intro d listed
      refine linesOf_line (List.count_eq_zero.1 ?_)
      exact List.sum_eq_zero_iff_forall_eq_nat.1 counts _ (List.mem_map_of_mem listed)
    rw [lines, List.flatMap_congr single, ← List.map_eq_flatMap]

/-- A string literal without newlines is quoted in one line. -/
theorem lines_of_two : let source := "= 1;\nf(x 'it');"
    let failure := parse [⟨1, .atLexeme "=", .expressionMissing⟩,
      ⟨2, .atLexeme "'it'", .argumentsNotClosed⟩]
    Program.ofSource source = .error failure ∧ failure.OnePerLine ∧ linesOf failure.message =
      ["[line 1] Error at '=': Expect expression.",
        "[line 2] Error at ''it'': Expect ')' after arguments."] := by
  intro source failure
  have rejected : Program.ofSource source = .error failure := by decide +kernel
  obtain ⟨-, -, -, -, apart, -⟩ := lines_of_message rejected
  exact ⟨rejected, apart.2 (by decide), by decide⟩

/-- One with a newline is not: the diagnostic goes on in a line without a label. -/
theorem not_onePerLine : let source := "1 '\n';"
    let failure := parse [⟨2, .atLexeme "'\n'", .semicolonAfterExpressionMissing⟩]
    Program.ofSource source = .error failure ∧ linesOf failure.message =
      ["[line 2] Error at ''", "'': Expect ';' after expression."] ∧ ¬ failure.OnePerLine := by
  intro source failure
  have lines : linesOf failure.message =
      ["[line 2] Error at ''", "'': Expect ';' after expression."] := by decide
  refine ⟨by decide +kernel, lines, fun apart => ?_⟩
  exact absurd (congrArg List.length (lines.symm.trans apart.1)) (by decide)

end Failure

end Scriptlet
