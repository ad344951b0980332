/-
# Scanning with two cursors

The scanner as a machine that walks over the text.  One cursor stands where the
piece being read starts, the other where reading has come to; the line and the
tokens and errors found so far go with them.  Every character and every stretch
is taken out of the text by position, and a position that the text does not have
makes the whole scan `none`, as does a loop that goes round more often than the
text has characters.

The machine and the cut of the text into pieces agree step by step: a step passes
exactly the first piece of what is left (`step_eq`).  So the machine comes to the
end of every text without leaving it, and has then found what scanning gives
(`scan_eq`).  With that, the texts that scan are those that read as their tokens.
-/
import Scriptlet.Proofs.Scanning.Lossless

namespace Scriptlet

open Piece Token

structure Scanner where
  /-- Where the piece starts that is being read. -/
  start : Nat
  /-- Where reading has come to. -/
  stop : Nat
  line : Nat
  tokens : List Token
  errors : List ScanError

namespace Scanner

section

variable (text : List Char)

/-- The characters from one position up to another one. -/
def slice (start stop : Nat) : Option (List Char) :=
  if start ≤ stop ∧ stop ≤ text.length then some ((text.take stop).drop start) else none

/-- The next character, which is passed. -/
def advance (s : Scanner) : Option (Char × Scanner) := do
  return (← text[s.stop]?, { s with stop := s.stop + 1 })

/-- The next character is passed if it is the given one. -/
def advanceIf (c : Char) (s : Scanner) : Bool × Scanner :=
  if text[s.stop]? = some c then (true, { s with stop := s.stop + 1 }) else (false, s)

/-- Characters of the given class are passed, in less than `rounds` rounds.  The
`lines` of each are counted. -/
def advanceWithin (p : Char → Bool) (lines : Char → Nat) : (rounds : Nat) → Scanner → Option Scanner
  | 0, _ => none
  | rounds + 1, s =>
    if text[s.stop]?.any p then do
      let (c, s) ← s.advance text
      advanceWithin p lines rounds { s with line := s.line + lines c }
    else some s

/-- Characters of the given class are passed. -/
def advanceWhile (p : Char → Bool) (lines : Char → Nat) (s : Scanner) : Option Scanner :=
  s.advanceWithin text p lines (text.length + 1)

/-- What stands between the cursors. -/
def lexeme (s : Scanner) : Option (List Char) := slice text s.start s.stop

/-- A token is found, with everything between the cursors as its spelling. -/
def push (kind : Kind) (literal : Option Literal) (s : Scanner) : Option Scanner := do
  let lexeme ← s.lexeme text
  return { s with tokens := s.tokens ++ [⟨kind, String.ofList lexeme, literal, s.line⟩] }

def report (e : ScanError) (s : Scanner) : Scanner := { s with errors := s.errors ++ [e] }

/-- The rest of a string literal.  Only strings are read over the ends of lines. -/
def string (quote : Char) (s : Scanner) : Option Scanner := do
  let s ← s.advanceWhile text (· != quote) fun c => if c = '\n' then 1 else 0
  if text.length ≤ s.stop then
    return s.report (.unterminatedString s.line)
  else
    let (_, s) ← s.advance text
    let inside ← slice text (s.start + 1) (s.stop - 1)
    s.push text .string (some (.string (String.ofList inside)))

/-- Digits, which have no newlines among them. -/
def digits (s : Scanner) : Option Scanner := s.advanceWhile text Char.isDigit fun _ => 0

/-- A point and the digits behind it, if a digit is behind it. -/
def places (s : Scanner) : Option Scanner :=
  if text[s.stop]? = some '.' ∧ text[s.stop + 1]?.any Char.isDigit then do
    let (_, s) ← s.advance text
    s.digits text
  else some s

/-- The rest of a number. -/
def number (s : Scanner) : Option Scanner := do
  let s ← s.digits text
  let s ← s.places text
  let lexeme ← s.lexeme text
  s.push text .number (some (.number (Decimal.ofChars lexeme).toFloat))

/-- The rest of a word. -/
def word (s : Scanner) : Option Scanner := do
  let s ← s.advanceWhile text isWordChar fun _ => 0
  let lexeme ← s.lexeme text
  let kind := Kind.ofWord (String.ofList lexeme)
  s.push text kind kind.constant?

/-- The rest of a piece, whose first character was `c`. -/
def piece (c : Char) (s : Scanner) : Option Scanner :=
  match lead c with
  | .sign kind => s.push text kind none
  | .operator alone withEqual =>
    let (equal, s) := s.advanceIf text '='
    s.push text (if equal then withEqual else alone) none
  | .slash =>
    let (comment, s) := s.advanceIf text '/'
    if comment then s.advanceWhile text (· != '\n') fun _ => 0 else s.push text .slash none
  | .quote => s.string text c
  | .blank => some { s with line := s.line + if c = '\n' then 1 else 0 }
  | .digit => s.number text
  | .letter => s.word text
  | .other => some (s.report (.unexpectedCharacter c s.line))

/-- One piece is read. -/
def step (s : Scanner) : Option Scanner := do
  let (c, s) ← advance text { s with start := s.stop }
  s.piece text c

/-- Piece after piece is read up to the end, in less than `rounds` rounds. -/
def runWithin : (rounds : Nat) → Scanner → Option Scanner
  | 0, _ => none
  | rounds + 1, s => if s.stop < text.length then do runWithin rounds (← s.step text) else some s

/-- Piece after piece is read up to the end. -/
def run (s : Scanner) : Option Scanner := s.runWithin text (text.length + 1)

end

/-- The scanner before a text. -/
def initial : Scanner := ⟨0, 0, 1, [], []⟩

/-- The tokens of a text or its errors, found by walking over it. -/
def scan (source : String) : Option (Except (List ScanError) (List Token)) := do
  let s ← initial.run source.toList
  return if s.errors = [] then .ok (s.tokens ++ [endOfFile s.line]) else .error s.errors

/-! ## Positions -/

/-- At the position `n` the text has `rest` left. -/
def Left (text : List Char) (n : Nat) (rest : List Char) : Prop :=
  n ≤ text.length ∧ text.drop n = rest

variable {text chars tail after rest : List Char} {c : Char} {s : Scanner} {n : Nat}

namespace Left

theorem next (h : Left text n rest) : text[n]? = rest.head? := by
  rw [← h.2, List.head?_drop]

/-- The character behind the next one. -/
theorem next' (h : Left text n rest) : text[n + 1]? = rest[1]? := by
  rw [← h.2, List.getElem?_drop]

theorem lt_length (h : Left text n (c :: rest)) : n < text.length := by
  obtain ⟨head, -⟩ := List.getElem?_eq_some_iff.1 h.next
  exact head

theorem length_le_iff (h : Left text n rest) : text.length ≤ n ↔ rest = [] := by
  rw [← h.2, List.drop_eq_nil_iff]

theorem pass (h : Left text n (chars ++ rest)) : Left text (n + chars.length) rest := by
  have length := congrArg List.length h.2
  rw [List.length_drop, List.length_append] at length
  refine ⟨by have := h.1; omega, ?_⟩
  rw [← List.drop_drop, h.2, List.drop_left]

theorem length_le (h : Left text n rest) : rest.length ≤ text.length := by
  rw [← h.2, List.length_drop]
  exact Nat.sub_le _ _

theorem pass_le (h : Left text n (chars ++ rest)) : chars.length ≤ text.length := by
  have whole := h.length_le
  rw [List.length_append] at whole
  exact Nat.le_trans (Nat.le_add_right _ _) whole

theorem pass_one (h : Left text n (c :: rest)) : Left text (n + 1) rest := by
  rw [← List.singleton_append] at h
  exact h.pass

theorem slice (h : Left text n (chars ++ rest)) :
    Scanner.slice text n (n + chars.length) = some chars := by
  rw [Scanner.slice, if_pos ⟨Nat.le_add_right _ _, h.pass.1⟩, List.drop_take, h.2,
    Nat.add_sub_cancel_left, List.take_left]

end Left

theorem advance_eq (h : Left text s.stop (c :: rest)) :
    s.advance text = some (c, { s with stop := s.stop + 1 }) := by
  rw [advance, h.next]
  rfl

theorem advanceIf_eq (h : Left text s.stop rest) : s.advanceIf text c =
    if rest.head? = some c then (true, { s with stop := s.stop + 1 }) else (false, s) := by
  rw [advanceIf, h.next]

theorem advanceWithin_eq {p : Char → Bool} {lines : Char → Nat} {rounds : Nat}
    (h : Left text s.stop (chars ++ rest)) (passed : ∀ d ∈ chars, p d)
    (ends : ∀ d ∈ rest.head?, p d = false) (enough : chars.length < rounds) :
    s.advanceWithin text p lines rounds = some { s with
      stop := s.stop + chars.length
      line := s.line + (chars.map lines).sum } := by
  induction chars generalizing s rounds with
  | nil =>
      obtain ⟨rounds, rfl⟩ := Nat.exists_eq_add_one.2 enough
      have none : ¬ text[s.stop]?.any p := by
        rw [h.next, List.nil_append]
        cases head : rest.head? with
        | none => simp
        | some d => simp [ends d head]
      rw [advanceWithin, if_neg none]
      rfl
  | cons d chars ih =>
      obtain ⟨rounds, rfl⟩ := Nat.exists_eq_add_one.2 (Nat.zero_lt_of_lt enough)
      obtain ⟨here, passed⟩ := List.forall_mem_cons.1 passed
      have some : text[s.stop]?.any p := by
        rw [h.next]
        exact here
      have behind : Left text (s.stop + 1) (chars ++ rest) := h.pass_one
      rw [advanceWithin, if_pos some, advance_eq h]
      have later := ih (s := { s with stop := s.stop + 1, line := s.line + lines d }) behind passed
        (Nat.lt_of_succ_lt_succ enough)
      refine later.trans ?_
      rw [List.length_cons, List.map_cons, List.sum_cons, Nat.add_assoc, Nat.add_assoc,
        Nat.add_comm 1]

theorem advanceWhile_eq {p : Char → Bool} {lines : Char → Nat}
    (h : Left text s.stop (chars ++ rest)) (passed : ∀ d ∈ chars, p d)
    (ends : ∀ d ∈ rest.head?, p d = false) :
    s.advanceWhile text p lines = some { s with
      stop := s.stop + chars.length
      line := s.line + (chars.map lines).sum } :=
  advanceWithin_eq h passed ends (Nat.lt_succ_of_le h.pass_le)

theorem push_eq {kind : Kind} {literal : Option Literal} (h : Left text s.start (chars ++ rest))
    (stop : s.stop = s.start + chars.length) : s.push text kind literal = some { s with
      tokens := s.tokens ++ [⟨kind, String.ofList chars, literal, s.line⟩] } := by
  rw [push, lexeme, stop, h.slice]
  rfl

/-! ## Pieces -/

/-- The scanner that has passed the given characters of the piece it reads. -/
def reading (s : Scanner) (chars : List Char) : Scanner :=
  { s with
    start := s.stop
    stop := s.stop + chars.length
    line := s.line + chars.count '\n' }

/-- The scanner that has passed one more piece. -/
def behind (s : Scanner) (p : Piece) : Scanner :=
  { s.reading p.chars with
    tokens := s.tokens ++ [(p, s.line + p.newlines)].filterMap ofPiece?
    errors := s.errors ++ [(p, s.line + p.newlines)].filterMap errorOfPiece? }

theorem reading_lexeme (h : Left text s.stop (chars ++ rest)) :
    (s.reading chars).lexeme text = some chars := h.slice

/-- A gap leaves nothing behind. -/
theorem behind_gap (s : Scanner) (chars : List Char) :
    s.behind ⟨.gap, chars⟩ = s.reading chars := by
  show { s.reading chars with tokens := s.tokens ++ [], errors := s.errors ++ [] } = _
  rw [List.append_nil, List.append_nil]
  rfl

theorem reading_push (chars : List Char) {kind : Kind} {literal : Option Literal}
    (h : Left text s.stop (chars ++ rest))
    (value : literal = literalOf? kind chars) :
    (s.reading chars).push text kind literal = some (s.behind ⟨.token kind, chars⟩) := by
  have errors : s.errors ++ [(⟨.token kind, chars⟩, s.line + chars.count '\n')].filterMap
      errorOfPiece? = s.errors := List.append_nil s.errors
  rw [push_eq (s := s.reading chars) h rfl, value, behind]
  exact congrArg some (congrArg (Scanner.mk _ _ _ _) errors.symm)

/-- A piece that is in error is reported. -/
theorem reading_report {p : Piece} {e : ScanError} (wrong : p.shape ∈ [.openString, .stray])
    (found : errorOfPiece? (p, s.line + p.newlines) = some e) :
    (s.reading p.chars).report e = s.behind p := by
  have none : ofPiece? (p, s.line + p.newlines) = none := by
    simp only [List.mem_cons, List.not_mem_nil, or_false] at wrong
    rcases wrong with shape | shape <;> rw [ofPiece?, shape]
  rw [report, behind, List.filterMap_cons_some found, List.filterMap_cons_none none,
    List.filterMap_nil, List.append_nil]
  rfl

theorem reading_append (s : Scanner) (chars tail : List Char) : s.reading (chars ++ tail) =
    { s.reading chars with
      stop := (s.reading chars).stop + tail.length
      line := (s.reading chars).line + tail.count '\n' } := by
  simp only [reading, List.length_append, List.count_append, Nat.add_assoc]

theorem reading_advance (chars : List Char) (h : Left text s.stop (chars ++ c :: rest))
    (inLine : c ≠ '\n') :
    (s.reading chars).advance text = some (c, s.reading (chars ++ [c])) := by
  have here : Left text (s.reading chars).stop (c :: rest) := h.pass
  rw [advance_eq here, reading_append, List.count_singleton, beq_false_of_ne inLine]
  rfl

theorem reading_advanceIf (chars : List Char) (h : Left text s.stop (chars ++ rest))
    (inLine : c ≠ '\n') :
    (s.reading chars).advanceIf text c =
      if rest.head? = some c then (true, s.reading (chars ++ [c]))
      else (false, s.reading chars) := by
  have here : Left text (s.reading chars).stop rest := h.pass
  rw [advanceIf_eq here, reading_append, List.count_singleton, beq_false_of_ne inLine]
  rfl

theorem reading_advanceWhile (chars : List Char) {p : Char → Bool} {lines : Char → Nat}
    (h : Left text s.stop (chars ++ (tail ++ rest))) (passed : ∀ d ∈ tail, p d)
    (ends : ∀ d ∈ rest.head?, p d = false)
    (counted : ∀ d, p d → lines d = if d = '\n' then 1 else 0) :
    (s.reading chars).advanceWhile text p lines = some (s.reading (chars ++ tail)) := by
  have here : Left text (s.reading chars).stop (tail ++ rest) := h.pass
  have newlines : (tail.map lines).sum = tail.count '\n' := by
    clear h here
    induction tail with
    | nil => rfl
    | cons d tail ih =>
        obtain ⟨here, passed⟩ := List.forall_mem_cons.1 passed
        rw [List.map_cons, List.sum_cons, counted d here, ih passed, List.count_cons, Nat.add_comm]
        simp only [beq_iff_eq]
  rw [advanceWhile_eq here passed ends, reading_append, newlines]

/-- As many characters of a class as come next are passed, if the class is
without the newline. -/
theorem reading_takeWhile (chars : List Char) {p : Char → Bool}
    (h : Left text s.stop (chars ++ rest)) (inLine : p '\n' = false) :
    (s.reading chars).advanceWhile text p (fun _ => 0) =
      some (s.reading (chars ++ rest.takeWhile p)) := by
  have split := (List.takeWhile_append_dropWhile (p := p) (l := rest)).symm
  rw [split] at h
  refine reading_advanceWhile chars h (fun d => List.mem_takeWhile_imp) ?_ ?_
  · intro d head
    have stops := List.head?_dropWhile_not p rest
    rw [head] at stops
    simpa using stops
  · intro d passed
    rw [if_neg]
    rintro rfl
    rw [inLine] at passed
    cases passed

/-- The characters up to a quote are passed, over as many lines as they have. -/
theorem reading_quoted {inside : List Char} (h : Left text s.stop (c :: (inside ++ rest)))
    (free : c ∉ inside) (ends : ∀ d ∈ rest.head?, d = c) :
    (s.reading [c]).advanceWhile text (· != c) (fun d => if d = '\n' then 1 else 0) =
      some (s.reading (c :: inside)) := by
  refine reading_advanceWhile [c] h ?_ ?_ fun _ _ => rfl
  · intro d member
    rw [bne_iff_ne]
    rintro rfl
    exact free member
  · intro d head
    rw [ends d head]
    exact bne_self_eq_false c

theorem string_closed {inside : List Char} (h : Left text s.stop (c :: (inside ++ c :: after)))
    (inLine : c ≠ '\n') (free : c ∉ inside) : (s.reading [c]).string text c =
      some (s.behind ⟨.token .string, c :: (inside ++ [c])⟩) := by
  have left : Left text (s.reading (c :: inside)).stop (c :: after) := h.pass
  have more : ¬ text.length ≤ (s.reading (c :: inside)).stop := fun past =>
    absurd (left.length_le_iff.1 past) (List.cons_ne_nil c after)
  have whole : Left text s.stop ((c :: (inside ++ [c])) ++ after) := by
    rwa [List.cons_append, List.append_assoc]
  -- The second cursor is behind the closing quote, the first one at the opening quote.
  have within : slice text ((s.reading (c :: (inside ++ [c]))).start + 1)
      ((s.reading (c :: (inside ++ [c]))).stop - 1) = some inside := by
    have stop : s.stop + (c :: (inside ++ [c])).length - 1 = s.stop + 1 + inside.length := by
      rw [List.length_cons, List.length_append, List.length_singleton]
      omega
    show slice text (s.stop + 1) (s.stop + (c :: (inside ++ [c])).length - 1) = _
    rw [stop]
    exact h.pass_one.slice
  have value : some (Literal.string (String.ofList inside)) =
      literalOf? .string (c :: (inside ++ [c])) := by
    rw [literalOf?, List.tail_cons, List.dropLast_concat]
  rw [string, reading_quoted h free (by simp), Option.bind_eq_bind, Option.bind_some, if_neg more,
    reading_advance _ h inLine, Option.bind_eq_bind, Option.bind_some]
  dsimp only [List.cons_append]
  rw [within, Option.bind_eq_bind, Option.bind_some]
  exact reading_push _ whole value

theorem string_open (h : Left text s.stop (c :: rest)) (free : c ∉ rest) :
    (s.reading [c]).string text c = some (s.behind ⟨.openString, c :: rest⟩) := by
  rw [← List.append_nil rest] at h
  have left : Left text (s.reading (c :: rest)).stop [] := h.pass
  rw [string, reading_quoted h free (by simp), Option.bind_eq_bind, Option.bind_some,
    if_pos (left.length_le_iff.2 rfl)]
  exact congrArg some (reading_report (p := ⟨.openString, c :: rest⟩) List.mem_cons_self rfl)

theorem string_eq (h : Left text s.stop (c :: rest)) (quoted : lead c = .quote) :
    (s.reading [c]).string text c = some (s.behind (stringPiece c rest)) := by
  have inLine : c ≠ '\n' := by
    rintro rfl
    cases quoted
  by_cases closed : c ∈ rest
  · obtain ⟨inside, after, rfl, free⟩ := List.eq_append_cons_of_mem closed
    have piece := first_string quoted free after
    rw [Piece.first, quoted, List.append_assoc, List.singleton_append] at piece
    rw [string_closed h inLine free, ← piece]
  · rw [string_open h closed, stringPiece_open c rest closed]

/-- What is behind a run of characters of a class. -/
theorem left_dropWhile (chars : List Char) (p : Char → Bool)
    (h : Left text s.stop (chars ++ rest)) :
    Left text s.stop (chars ++ rest.takeWhile p ++ rest.dropWhile p) := by
  rwa [List.append_assoc, List.takeWhile_append_dropWhile]

/-- The digits that come next are passed. -/
theorem reading_digits (chars : List Char) (h : Left text s.stop (chars ++ rest)) :
    (s.reading chars).digits text = some (s.reading (chars ++ rest.takeWhile Char.isDigit)) :=
  reading_takeWhile chars h (by decide)

theorem fraction_eq (rest : List Char) : fraction rest =
    if rest.head? = some '.' ∧ rest[1]?.any Char.isDigit then
      '.' :: rest.tail.takeWhile Char.isDigit else [] := by
  unfold fraction
  split
  case h_1 d rest =>
      split
      case isTrue digit =>
        rw [if_pos ⟨rfl, digit⟩, List.tail_cons, List.takeWhile_cons_of_pos digit]
      case isFalse other => rw [if_neg fun both => other both.2]
  case h_2 none =>
      rw [if_neg]
      rintro ⟨point, digit⟩
      obtain ⟨rest, rfl⟩ := List.head?_eq_some_iff.1 point
      cases rest with
      | nil => cases digit
      | cons d rest => exact none d rest rfl

theorem reading_places (h : Left text s.stop (chars ++ rest)) :
    (s.reading chars).places text = some (s.reading (chars ++ fraction rest)) := by
  have left : Left text (s.reading chars).stop rest := h.pass
  rw [places, left.next, left.next', fraction_eq]
  split
  case isTrue fractional =>
      obtain ⟨after, rfl⟩ := List.head?_eq_some_iff.1 fractional.1
      have behind : Left text s.stop (chars ++ ['.'] ++ after) := by
        rwa [List.append_assoc, List.singleton_append]
      rw [reading_advance chars h (by decide), Option.bind_eq_bind, Option.bind_some]
      refine (reading_digits _ behind).trans ?_
      rw [List.append_assoc, List.singleton_append, List.tail_cons]
  case isFalse => rw [List.append_nil]

theorem number_eq (h : Left text s.stop (c :: rest)) :
    (s.reading [c]).number text = some (s.behind ⟨.token .number, c :: numberTail rest⟩) := by
  have whole : Left text s.stop
      (c :: rest.takeWhile Char.isDigit ++ rest.dropWhile Char.isDigit) :=
    left_dropWhile [c] Char.isDigit h
  obtain ⟨after, starts⟩ := numberTail_starts rest
  have left : Left text s.stop (c :: numberTail rest ++ after) := by rwa [List.cons_append, starts]
  have digits : (s.reading [c]).digits text = some (s.reading (c :: rest.takeWhile Char.isDigit)) :=
    reading_digits [c] h
  have places : (s.reading (c :: rest.takeWhile Char.isDigit)).places text =
      some (s.reading (c :: numberTail rest)) := reading_places whole
  simp only [number, digits, places, reading_lexeme left, Option.bind_eq_bind, Option.bind_some]
  exact reading_push _ left rfl

theorem constant?_ofWord (word : String) (chars : List Char) :
    (Kind.ofWord word).constant? = literalOf? (Kind.ofWord word) chars := by
  have listed : ∀ entry ∈ Kind.reserved, entry.2 ∉ [Kind.number, .string] := by decide
  have fixed : Kind.ofWord word ∉ [Kind.number, .string] := by
    cases found : Kind.reserved.lookup word with
    | none =>
        rw [Kind.ofWord, found]
        decide
    | some kind =>
        obtain ⟨before, after, split, -⟩ := List.lookup_eq_some_iff.1 found
        rw [Kind.ofWord, found]
        refine listed (word, kind) ?_
        rw [split]
        exact List.mem_append_right _ List.mem_cons_self
  cases kind : Kind.ofWord word <;> first
    | rfl
    | (rw [kind] at fixed
       exact absurd fixed (by decide))

theorem word_eq (h : Left text s.stop (c :: rest)) :
    (s.reading [c]).word text = some (s.behind (wordPiece c rest)) := by
  have split := left_dropWhile [c] isWordChar h
  have passes := reading_takeWhile [c] (p := isWordChar) h (by decide)
  rw [word, passes, Option.bind_eq_bind, Option.bind_some, reading_lexeme split,
    Option.bind_eq_bind, Option.bind_some]
  exact reading_push _ split (constant?_ofWord _ _)

theorem slash_eq (h : Left text s.stop ('/' :: rest)) :
    (s.reading ['/']).piece text '/' = some (s.behind (slashPiece rest)) := by
  have next := reading_advanceIf (c := '/') (s := s) ['/'] h (by decide)
  rw [piece, show lead '/' = .slash from rfl, slashPiece]
  dsimp only
  rw [next]
  by_cases comment : rest.head? = some '/'
  case pos =>
      rw [if_pos comment, if_pos comment, behind_gap]
      obtain ⟨after, rfl⟩ := List.head?_eq_some_iff.1 comment
      exact reading_takeWhile ['/', '/'] h (by decide)
  case neg =>
      rw [if_neg comment, if_neg comment]
      exact reading_push ['/'] h rfl

/-- Once its first character is passed, the piece is passed up to its end. -/
theorem piece_eq (h : Left text s.stop (c :: rest)) (inLine : c ≠ '\n') :
    (s.reading [c]).piece text c = some (s.behind (first c rest)) := by
  have one : Left text s.stop ([c] ++ rest) := h
  cases lead : lead c with
  | sign kind =>
      have value := (cut_signs kind (mem_signs_of_sign lead)).2
      rw [spelling_of_sign lead, String.toList_ofList] at value
      rw [piece, Piece.first, lead]
      exact reading_push _ one value.symm
  | operator alone withEqual =>
      obtain ⟨member, member'⟩ := mem_signs_of_operator lead
      obtain ⟨spelled, spelled'⟩ := spelling_of_operator lead
      have value := (cut_signs alone member).2
      have value' := (cut_signs withEqual member').2
      rw [spelled, String.toList_ofList] at value
      rw [spelled', String.toList_ofList] at value'
      rw [piece, Piece.first, lead]
      dsimp only
      rw [reading_advanceIf _ one (by decide)]
      split
      case isTrue equal =>
          obtain ⟨after, rfl⟩ := List.head?_eq_some_iff.1 equal
          exact reading_push [c, '='] h value'.symm
      case isFalse => exact reading_push _ one value.symm
  | slash =>
      obtain rfl := lead_slash lead
      exact slash_eq h
  | quote =>
      rw [piece, Piece.first, lead]
      exact string_eq h lead
  | blank =>
      rw [piece, Piece.first, lead, behind_gap]
      simp only [if_neg inLine]
      rfl
  | digit =>
      rw [piece, Piece.first, lead]
      exact number_eq h
  | letter =>
      rw [piece, Piece.first, lead]
      exact word_eq h
  | other =>
      rw [piece, Piece.first, lead]
      exact congrArg some (reading_report (p := ⟨.stray, [c]⟩) (by simp) rfl)

/-! ## The whole text -/

/-- A step passes the first piece of what is left of the text. -/
theorem step_eq (h : Left text s.stop (c :: rest)) :
    s.step text = some (s.behind (first c rest)) := by
  by_cases newline : c = '\n'
  case pos =>
      subst newline
      rw [step, advance_eq (s := { s with start := s.stop }) h]
      exact congrArg some (s.behind_gap ['\n']).symm
  case neg =>
      have passes := reading_advance (s := s) [] h newline
      rw [step, show { s with start := s.stop } = s.reading [] from rfl, passes]
      exact piece_eq h newline

/-- What is left of the text is passed piece by piece. -/
theorem runWithin_eq {rounds : Nat} (h : Left text s.stop rest) (enough : rest.length < rounds) :
    s.runWithin text rounds = some ((cut rest).foldl behind s) := by
  induction rest using cut_induction generalizing s rounds with
  | nil =>
      obtain ⟨rounds, rfl⟩ := Nat.exists_eq_add_one.2 enough
      have ends : ¬ s.stop < text.length := Nat.not_lt.2 (h.length_le_iff.2 rfl)
      rw [runWithin, if_neg ends]
      rfl
  | cons c tail after shape piece ih =>
      obtain ⟨rounds, rfl⟩ := Nat.exists_eq_add_one.2 (Nat.zero_lt_of_lt enough)
      have left : Left text (s.behind ⟨shape, c :: tail⟩).stop after := by
        rw [← List.cons_append] at h
        exact h.pass
      have fewer : after.length < rounds := by
        rw [List.length_cons, List.length_append] at enough
        omega
      rw [runWithin, if_pos h.lt_length, step_eq h, piece, Option.bind_eq_bind, Option.bind_some,
        ih left fewer, cut_cons piece]
      rfl

theorem run_eq (h : Left text s.stop rest) : s.run text = some ((cut rest).foldl behind s) :=
  runWithin_eq h (Nat.lt_succ_of_le h.length_le)

/-- Piece after piece leaves its tokens and errors behind. -/
theorem foldl_behind (pieces : List Piece) (s : Scanner) :
    (pieces.foldl behind s).line = s.line + (pieces.flatMap (·.chars)).count '\n' ∧
    (pieces.foldl behind s).tokens = s.tokens ++ (withLines s.line pieces).filterMap ofPiece? ∧
    (pieces.foldl behind s).errors =
      s.errors ++ (withLines s.line pieces).filterMap errorOfPiece? := by
  induction pieces generalizing s with
  | nil => exact ⟨rfl, (List.append_nil _).symm, (List.append_nil _).symm⟩
  | cons p pieces ih =>
      obtain ⟨line, tokens, errors⟩ := ih (s.behind p)
      rw [withLines, ← List.singleton_append (l := withLines _ _), List.filterMap_append,
        List.filterMap_append, ← List.append_assoc, ← List.append_assoc, List.flatMap_cons,
        List.count_append, ← Nat.add_assoc]
      exact ⟨line, tokens, errors⟩

/-- Walking over a text with two cursors never leaves it, comes to an end, and
finds what scanning gives. -/
theorem scan_eq (source : String) : Scanner.scan source = some (Token.scan source) := by
  have left : Left source.toList initial.stop source.toList := ⟨Nat.zero_le _, rfl⟩
  obtain ⟨line, tokens, errors⟩ := foldl_behind (cut source.toList) initial
  rw [Scanner.scan, run_eq left, Option.bind_eq_bind, Option.bind_some, line, tokens, errors,
    flatMap_cut, scan_eq_ite]
  rfl

/-- Scanning loses nothing and takes the longest token everywhere: it never asks
for a character that is not there, and gives tokens exactly if the text reads as
these, up to the one that stands for its end. -/
theorem scan_lossless (source : String) : Scanner.scan source = some (Token.scan source) ∧
    ∀ tokens, Token.scan source = .ok tokens ↔
      ∃ words, tokens = words ++ [endOfFile (1 + source.toList.count '\n')] ∧
        (∀ t ∈ words, t.kind ≠ .eof) ∧ Reads [] source.toList words := by
  refine ⟨scan_eq source, fun tokens => ?_⟩
  rw [scan_iff_reads]
  constructor
  · rintro ⟨words, rfl, reads⟩
    exact ⟨words, rfl, reads.ne_eof, reads⟩
  · rintro ⟨words, rfl, -, reads⟩
    exact ⟨words, rfl, reads⟩

end Scanner

end Scriptlet
